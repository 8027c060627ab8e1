import MiniScheme.Check.Trace

/-! Checks of whole programs, and of environments kept from one program to the next. -/

namespace MiniScheme.Check.Programs

open Expectation

def scanAndReadCases : List (String × Expectation) :=
  [
    ("(if #t 1 2)", {
      tokens := joined ["LEFT_PAREN", "SYMBOL:if", "BOOLEAN:#t", "NUMBER:1", "NUMBER:2",
          "RIGHT_PAREN", "EOF"]
      expression := "(if #t 1 2)"
      result := "1" }),
    ("(begin (define r 10) (* 3 (* r r)))", {
      expression := "(begin (define r 10) (* 3 (* r r)))"
      result := "300" }),
    ("(display\n\"abc\"", {
      tokens := joined ["LEFT_PAREN", "SYMBOL:display", "STRING:abc", "EOF"]
      panic := parserError "LEFT_PAREN" "unbalanced parenthesis, missing right parenthesis" }),
    ("", {
      tokens := joined ["EOF"]
      panic := parserError "EOF" "unexpected end-of-stream token" }),
    (")", {
      expression := "#<error unexpected )>"
      panic := runtimeError "RIGHT_PAREN" "unexpected )" }),
    ("(display 1))", {
      expression := "(display 1) #<error unexpected )>"
      panic := runtimeError "RIGHT_PAREN" "unexpected )" })
  ]

def arithmeticCases : List (String × Expectation) :=
  [
    ("(+ 2 2)", .yields "4"),
    ("(+ 2 2 3 5)", .yields "12"),
    ("(- 6 2)", .yields "4"),
    ("(- 8 2 3 2)", .yields "1"),
    ("(* 8 2)", .yields "16"),
    ("(* 8 2 2)", .yields "32"),
    ("(/ 8 2 2)", .yields "2"),
    ("(+ (* 3 5) (- 10 6))", .yields "19"),
    ("(if (> (* 11 11) 120) (* 7 6) oops)", .yields "42")
  ]

def defineAndIfCases : List (String × Expectation) :=
  [
    ("(begin (define x 4) x)", .yields "4"),
    (indented ["(define x 4)", "(define y 5)", "(+ x y)"], .yields "9"),
    ("(if #t 1 2)", .yields "1"),
    ("(if #f 1 2)", .yields "2"),
    ("(if (< 1 2) 1 2)", .yields "1"),
    ("(if 0 1 2)", .yields "1"),
    ("(if (list) 1 2)", .yields "1"),
    ("(begin (define x 1) (if (= x 1) (display \"a\")) (if (= x 2) (display \"b\")))", {
      output := "a"
      result := "#<undef>" })
  ]

def quoteAndListCases : List (String × Expectation) :=
  [
    ("(quote (1 2 3))", .yields "(1 2 3)"),
    ("(quote (a (b c) \"d\"))", .yields "(a (b c) d)"),
    ("(list 1 2 3)", .yields "(1 2 3)"),
    ("(cdr (list 1 2 3))", .yields "(2 3)"),
    ("(list (+ 1 2) (+ 3 4) (list 5 6))", .yields "(3 7 (5 6))")
  ]

def lambdaCases : List (String × Expectation) :=
  [
    ("((lambda (x y) (+ x y 1)) 5 6)", .yields "12"),
    ("(lambda () 1)", .yields "[procedure lambda]"),
    ("+", .yields "[primitive +]"),
    (indented ["(define make-adder (lambda (n) (lambda (x) (+ x n))))",
        "(define add2 (make-adder 2))", "(add2 40)"],
      .yields "42"),
    (indented ["(define count (lambda (n) (if (= n 0) 0 (+ n (count (- n 1))))))", "(count 10)"],
      .yields "55"),
    (indented ["(define factorial (lambda (n) (if (= n 1) 1 (* n (factorial (- n 1))))))",
        "(factorial 5)"],
      .yields "120"),
    ("((lambda (x y) (+ x y)) 1)",
      .panics (runtimeError "LEFT_PAREN" "lambda expect exactly 2 arguments, but get 1")),
    ("((lambda (a) (+ x 1)) 2)", .panics (runtimeError "SYMBOL:x" "unbound variable")),
    ("(1 2 3)", .panics (runtimeError "LEFT_PAREN" "not callable: cannot call NumberVal value"))
  ]

def setCases : List (String × Expectation) :=
  [
    ("(set! x 1)", .panics (runtimeError "SYMBOL:x" "unbound variable")),
    (indented ["(define a 1)", "(define incr (lambda () (set! a (+ a 1))))",
        "(incr)", "(incr)", "a"],
      .yields "3"),
    (indented ["(define x 1)", "((lambda (y) (set! x y)) 5)",
        "((lambda (y) (define x y)) 7)", "x"],
      .yields "5")
  ]

def recursionDepthCases : List (String × Expectation) :=
  [
    (indented ["(define count (lambda (n) (if (= n 0) 0 (+ n (count (- n 1))))))", "(count 100)"],
      .yields "5050"),
    (indented ["(define count (lambda (n) (if (= n 0) 0 (+ n (count (- n 1))))))",
        "(count 100000)"],
      .panics "runtime error: maximum recursion depth exceeded")
  ]

def inFresh (source : String) : Run Value := interpret recursionLimit source none

def inEnv (env : Address) (source : String) : Run Value :=
  interpret recursionLimit source (some env)

def sessions : Check Unit := do
  prints (← ofRun (inFresh "(+ 2 2)")) "4"
  match ← ofRun (inFresh "(quote (1 2 3))") with
  | v@(.list _) => prints v "(1 2 3)"
  | _ => throw .unmet
  let _ ← ofRun (inFresh "(define x 1)")
  panics (inFresh "x") (runtimeError "SYMBOL:x" "unbound variable")
  let kept ← ofRun Run.newGlobal
  let _ ← ofRun (inEnv kept "(define x 1)")
  prints (← ofRun (inEnv kept "(+ x 1)")) "2"
  let failed ← ofRun Run.newGlobal
  panics (inEnv failed "(define y 2) (car 1)")
    (runtimeError "LEFT_PAREN" "car requires a list, now NumberVal")
  prints (← ofRun (Run.lookup failed "y")) "2"

def recursionDepth : Check Unit := do
  each interpreting recursionDepthCases
  prints (← ofRun (inFresh "(+ 1 2)")) "3"

def reevaluation : Check Unit := do
  let e ← ofRun (readExpr recursionLimit (scan "(begin (define x 3) ((lambda (y) (* x y)) 4))"))
  let first ← ofRun (do evalTop recursionLimit e (← Run.newGlobal))
  let second ← ofRun (do evalTop recursionLimit e (← Run.newGlobal))
  compares first second true
  prints first "12"

def all : List (String × Check Unit) :=
  [("scan and read", each interpreting scanAndReadCases),
    ("arithmetic", each interpreting arithmeticCases),
    ("define and if", each interpreting defineAndIfCases),
    ("quote and list", each interpreting quoteAndListCases),
    ("lambda", each interpreting lambdaCases),
    ("set", each interpreting setCases),
    ("interpret", sessions),
    ("recursion depth", recursionDepth),
    ("idempotence", reevaluation)]

end MiniScheme.Check.Programs
