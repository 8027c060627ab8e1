import MiniScheme.Check.Trace

/-! Checks of evaluation in an environment with a single primitive. -/

namespace MiniScheme.Check.Evaluation

open Expectation

def atomsCases : List (String × Expectation) :=
  [
    ("1", .yields "1"),
    ("\"abc\"", .yields "abc"),
    ("#f", .yields "#f"),
    ("()", .yields "#<undef>"),
    ("add", .yields "[primitive add]"),
    ("x", .panics (runtimeError "SYMBOL:x" "unbound variable")),
    (")", .panics (runtimeError "RIGHT_PAREN" "unexpected )"))
  ]

def specialFormsCases : List (String × Expectation) :=
  [
    ("(define x 1) x", .yields "1"),
    ("(define x 1)", .yields "#<undef>"),
    ("(if 0 1 2)", .yields "1"),
    ("(if #f 1)", .yields "#<undef>"),
    ("(quote (1 (a \"b\") #t))", .yields "(1 (a b) #t)"),
    ("(quote x)", .yields "x"),
    ("(define x 1) (set! x 2) x", .yields "2"),
    ("((lambda (x y) (add x y)) 1 2)", .yields "3"),
    ("(lambda () 1)", .yields "[procedure lambda]"),
    ("(set! y 1)", .panics (runtimeError "SYMBOL:y" "unbound variable")),
    ("(define 1 2)",
      .panics (runtimeError "LEFT_PAREN"
        "unknown expression: define name should be symbol, now NumberAtom")),
    ("(if 1 2 3 4)",
      .panics (runtimeError "LEFT_PAREN"
        "unknown expression: if should have 3 or 4 expressions, now 5")),
    ("(lambda (x x) x)",
      .panics (runtimeError "SYMBOL:x" "unknown expression: parameter show up twice")),
    ("(lambda (x) x x)",
      .panics (runtimeError "LEFT_PAREN"
        "unknown expression: lambda should have 3 expressions, now 4"))
  ]

def callCases : List (String × Expectation) :=
  [
    ("(1 2)", .panics (runtimeError "LEFT_PAREN" "not callable: cannot call NumberVal value")),
    ("((lambda (x) x))",
      .panics (runtimeError "LEFT_PAREN" "lambda expect exactly 1 arguments, but get 0")),
    ("(add 1 \"a\")", .panics (runtimeError "LEFT_PAREN" "add requires numbers")),
    ("(define f (lambda () y)) (define y 5) (f)", .yields "5"),
    ("(define k (lambda (x) (lambda () x))) (define a (k 1)) (define b (k 2)) (add (a) (b))",
      .yields "3")
  ]

def unknown : Check Unit := do
  let env ← ofRun additionOnly
  fails (eval recursionLimit .unknown env) fun failure =>
    match failure with
    | .eval e => (e.text matches .ok "runtime error: unknown expression Expression")
    | _ => false

def all : List (String × Check Unit) :=
  [("atoms", each evaluating atomsCases), ("special forms", each evaluating specialFormsCases),
    ("call", each evaluating callCases), ("unknown", unknown)]

end MiniScheme.Check.Evaluation
