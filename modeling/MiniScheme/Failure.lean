import MiniScheme.Token

/-! Every way in which reading, evaluating and printing can fail, by cause, and the wording of
each. -/

namespace MiniScheme

inductive ReadFault
  | noToken
  | unexpectedEnd
  | malformedNumber
  | unclosed
deriving DecidableEq

structure ReadError where
  anchor : Token
  fault : ReadFault
deriving DecidableEq

inductive PrimitiveFault
  | notNumber (name kind : String)
  | addNotNumbers
  | divisionByZero
  | notList (name kind : String)
  | emptyList (name : String)
  | consNotList (kind : String)
  | applyNotProcedure (kind : String)
deriving DecidableEq

inductive EvalFault
  | unboundVariable
  | stray (message : String)
  | unknownExpression (kind : String)
  | formLength (keyword : String) (lengths : List Nat) (found : Nat)
  | notSymbol (role kind : String)
  | parametersNotList
  | repeatedParameter
  | tooFewOperands (name : String) (least found : Nat)
  | otherOperandCount (name : String) (exact found : Nat)
  | notCallable (kind : String)
  | primitive (fault : PrimitiveFault)
  | tooDeep
deriving DecidableEq

structure EvalError where
  anchor : Option Token
  fault : EvalFault
deriving DecidableEq

/-- `panic` and `exit` are how a program's failure is handed to the caller; the other kinds
arise inside and are turned into a panic on the way out, but for numbers too large and the
recursion limit of the reader. -/
inductive Failure
  | panic (message : String)
  | exit (code : Nat)
  | read (error : ReadError)
  | eval (error : EvalError)
  | primitive (fault : PrimitiveFault)
  | unbound (name : String)
  | arithmetic (error : ArithmeticError)
  | tooDeep
  | unknownClass
  | operandCount
deriving DecidableEq

namespace ReadFault

def message : ReadFault → String
  | .noToken => "premature end of input"
  | .unexpectedEnd => "unexpected end-of-stream token"
  | .malformedNumber => "malformed number"
  | .unclosed => "unbalanced parenthesis, missing right parenthesis"

end ReadFault

namespace ReadError

def text (e : ReadError) : Except ArithmeticError String := do
  return "parser error at " ++ (← e.anchor.position) ++ ": " ++ e.fault.message

end ReadError

namespace PrimitiveFault

def message : PrimitiveFault → String
  | .notNumber name kind => name ++ " requires numbers, now " ++ kind
  | .addNotNumbers => "add requires numbers"
  | .divisionByZero => "division by zero"
  | .notList name kind => name ++ " requires a list, now " ++ kind
  | .emptyList name => name ++ " of empty list"
  | .consNotList kind => "cons requires a list as 2nd argument, now " ++ kind
  | .applyNotProcedure kind => "apply requires a procedure, now " ++ kind

end PrimitiveFault

namespace EvalFault

def message : EvalFault → String
  | .unboundVariable => "unbound variable"
  | .stray message => message
  | .unknownExpression kind => "unknown expression " ++ kind
  | .formLength keyword lengths found =>
    "unknown expression: " ++ keyword ++ " should have " ++
      " or ".intercalate (lengths.map Nat.repr) ++ " expressions, now " ++ found.repr
  | .notSymbol role kind => "unknown expression: " ++ role ++ " should be symbol, now " ++ kind
  | .parametersNotList => "unknown expression: lambda parameters should be list"
  | .repeatedParameter => "unknown expression: parameter show up twice"
  | .tooFewOperands name least found =>
    name ++ " expect at least " ++ least.repr ++ " arguments, only get " ++ found.repr
  | .otherOperandCount name exact found =>
    name ++ " expect exactly " ++ exact.repr ++ " arguments, but get " ++ found.repr
  | .notCallable kind => "not callable: cannot call " ++ kind ++ " value"
  | .primitive fault => fault.message
  | .tooDeep => "maximum recursion depth exceeded"

end EvalFault

namespace EvalError

def text (e : EvalError) : Except ArithmeticError String :=
  match e.anchor with
  | none => .ok ("runtime error: " ++ e.fault.message)
  | some t => do return "runtime error at " ++ (← t.position) ++ ": " ++ e.fault.message

end EvalError

end MiniScheme
